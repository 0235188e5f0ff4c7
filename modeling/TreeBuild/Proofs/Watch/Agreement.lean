import TreeBuild.Proofs.Watch.Convergence
import TreeBuild.Proofs.Watch.Reflection

/-!
# Rebuilds and full builds

After a full build sources change one by one, and each change is handled by building that source alone, or by
removing its product. The output then still reflects the sources: this is what a full build begins with and
what every change keeps. So it holds what a full build of the sources would leave there now, place by place,
but for two cases. A module is resolved in the view of its last build; files that have come or gone since then
may make a difference where its specifiers look for them. And the descriptor is missing while the source with
its name has gone and nothing has been built since.
-/
namespace TreeBuild.Watch

open TreeBuild.Tree TreeBuild.Build

/-! ### Histories -/

/-- A path at which sources come and go: a full build finds them there, and the path can be named in an event. -/
structure IsFindable (root path : Path) : Prop where
  shown : IsShown root path
  literal : Glob.hasMagic path.toString = false
  fits : path.Fits

/-- The view in which a source is built by itself: its product is there, and all that was there before. -/
def ownView (root : Path) (tree : Tree) (path : Path) : Path → Bool :=
  standing (.ofRoot root) [SourceFile.ofPath (.ofRoot root) path] tree.contentAt?

/-- A project has been built and then developed: single sources have changed, and each time the event about the
change has been handled without a failure. For each source it is kept in which view it was built last. -/
inductive Developed (tools : Toolchain) (root : Path) (request : Request) :
    Session → (Path → Path → Bool) → Prop where
  | built {start built : Session} {outcome : Outcome} {files : List SourceFile} (ready : Ready root start)
      (away : ¬ (Layout.ofRoot root).sources.parts <+: start.temporary.parts)
      (present : start.tree.status root = .ok .directory)
      (found : Sources.discover start.tree (.ofRoot root) "src/**/*" = .ok files)
      (apart : AreApart root start.tree) (ran : run tools request (.ofRoot root) start = (.ok outcome, built)) :
      Developed tools root request built fun _ => fullView root files start.tree
  | changed {session changed after : Session} {seen : Path → Path → Bool} {change : RawChange}
      {event : WatchEvent} (before : Developed tools root request session seen)
      (regular : changed.tree.IsRegular) (temporary : changed.temporary = session.temporary)
      (environment : changed.environment = session.environment)
      (alters : Alters (IsFindable root) session.tree.contentAt? changed.tree.contentAt? change)
      (announces : announced change = [event]) (apart : AreApart root changed.tree)
      (succeeds : Succeeds tools request (.ofRoot root) event changed after) :
      Developed tools root request after
        (Function.update seen event.path (ownView root changed.tree event.path))

/-- A single source has changed, and an event says rightly whether it is there. -/
structure SingleChange (root : Path) (before after : Tree) (event : WatchEvent) : Prop where
  findable : IsFindable root event.path
  isFile : event.isDirectory = false
  elsewhere : ∀ location, location ≠ event.path.parts → after.contentAt? location = before.contentAt? location
  isTrue : IsTrue after event
  present : event.kind = .removed → before.contentAt? event.path.parts ≠ none

/-- Nothing has changed but a source, its product and the descriptor of the output. -/
structure Touches (root path : Path) (before after : Tree) : Prop where
  shown : IsShown root path
  outside : ∀ location, ¬ (Layout.ofRoot root).output.parts <+: location → location ≠ path.parts →
    after.contentAt? location = before.contentAt? location
  inside : ∀ location, (Layout.ofRoot root).output.parts <+: location →
    location ≠ ((Layout.ofRoot root).destination path).parts →
    location ≠ (Layout.ofRoot root).outputDescriptor.parts →
    after.contentAt? location = before.contentAt? location

section

variable {tools : Toolchain} {root path : Path} {request : Request} {rewrites : Bool}
  {seen : Path → Path → Bool} {view : Path → Bool} {event : WatchEvent} {change : RawChange} {act : Act}
  {before changed after : Tree} {session fresh complete : Session} {files : List SourceFile}
  {outcome : Outcome} {emit : CompilerOptions → Path → Text.Bytes → Text.Bytes}

/-- What a search can find is a place in the project. -/
theorem IsFindable.isPlace (findable : IsFindable root path) (rooted : root.anchor = .root)
    (plain : root.IsPlain) : IsPlace (.ofRoot root) path :=
  have source := findable.shown.isSourcePath rooted plain
  ⟨source.rooted, source.plain, findable.shown.nonempty, findable.literal, findable.shown.outside⟩

/-- A change that calls for one event changes one source. -/
theorem Alters.single (alters : Alters (IsFindable root) before.contentAt? changed.contentAt? change)
    (announces : announced change = [event]) : SingleChange root before changed event := by
  have added {path : Path} {content : Text.Bytes} (findable : IsFindable root path) {kind : EventKind}
      (kept : kind ≠ .removed)
      (contents : changed.contentAt? = Function.update before.contentAt? path.parts (some content)) :
      SingleChange root before changed { path, kind } := by
    have here : changed.contentAt? path.parts = some content := by rw [contents, Function.update_self]
    have held := holdsFile_of_content findable.fits here
    constructor
    · exact findable
    · rfl
    · intro location other
      rw [contents, Function.update_of_ne other]
    · simp [IsTrue, kept, held]
    · exact fun gone => absurd gone kept
  cases alters with
  | created content findable absent contents =>
    obtain rfl := List.singleton_inj.mp announces
    exact added findable (by decide) contents
  | modified content findable present contents =>
    obtain rfl := List.singleton_inj.mp announces
    exact added findable (by decide) contents
  | @deleted path findable present contents =>
    obtain rfl := List.singleton_inj.mp announces
    have none : changed.contentAt? path.parts = none := by rw [contents, Function.update_self]
    constructor
    · exact findable
    · rfl
    · intro location other
      rw [contents, Function.update_of_ne other]
    · simp [IsTrue, holdsFile_of_none none]
    · exact fun _ => present
  | moved => cases announces

/-! ### What a change leaves as it was -/

/-- The descriptor of the project is no source. -/
theorem IsShown.ne_descriptor (shown : IsShown root path) :
    (Layout.ofRoot root).descriptor.parts ≠ path.parts := by
  have descriptor : (Layout.ofRoot root).descriptor.parts = root.parts ++ ["package.json"] :=
    congrArg Path.parts (root.div_of_isPart (by decide : Path.IsName "package.json").toIsPart)
  obtain ⟨parts, nonempty, -, rfl⟩ := shown
  rw [descriptor, Sources.sources_eq]
  simp

namespace Touches

variable (touches : Touches root path before after)

include touches

/-- Other sources are as they were. -/
theorem source {another : Path} (shown : IsShown root another) (different : another ≠ path) :
    after.contentAt? another.parts = before.contentAt? another.parts :=
  touches.outside _ shown.outside (shown.parts_ne touches.shown different)

/-- Whether another source is emitted does not change. -/
theorem isEmitted_iff {another : Path} (different : another ≠ path) :
    IsEmitted root after another ↔ IsEmitted root before another := by
  constructor
  · exact fun isSource => (isEmitted_congr (touches.source isSource.shown different)).mp isSource
  · exact fun isSource => (isEmitted_congr (touches.source isSource.shown different)).mpr isSource

/-- The descriptor of the project is as before. -/
theorem descriptor : after.contentAt? (Layout.ofRoot root).descriptor.parts =
    before.contentAt? (Layout.ofRoot root).descriptor.parts :=
  touches.outside _ (Layout.descriptor_outside root) touches.shown.ne_descriptor

/-- The descriptor among the sources is as before unless it is the source that changes. -/
theorem original_eq (different : path ≠ describing root) : original root after = original root before :=
  original_congr (touches.source (isShown_describing root) different.symm)

/-- The output reflects the sources after the change as before it, if the products of the other sources have
been spared and all is right at the destination of this one and with the descriptor. -/
theorem reflects (reflects : Reflects tools root request rewrites seen before)
    (spared : ∀ another, another ≠ path → IsEmitted root after another →
      ((Layout.ofRoot root).destination another).parts ≠ (Layout.ofRoot root).outputDescriptor.parts →
      after.contentAt? ((Layout.ofRoot root).destination another).parts =
        before.contentAt? ((Layout.ofRoot root).destination another).parts)
    (place : ((Layout.ofRoot root).destination path).parts ≠ (Layout.ofRoot root).outputDescriptor.parts →
      ((after.contentAt? ((Layout.ofRoot root).destination path).parts).isSome ↔ ∃ another,
        IsEmitted root after another ∧ ((Layout.ofRoot root).destination path).parts =
          ((Layout.ofRoot root).destination another).parts))
    (made : IsEmitted root after path →
      ((Layout.ofRoot root).destination path).parts ≠ (Layout.ofRoot root).outputDescriptor.parts →
        MadeAmong tools (.ofRoot root) request rewrites view after path)
    (described : Output.Patches request.format (original root after)
        (after.contentAt? (Layout.ofRoot root).outputDescriptor.parts) ∨
      original root after = none ∧ after.contentAt? (Layout.ofRoot root).outputDescriptor.parts = none) :
    Reflects tools root request rewrites (Function.update seen path view) after := by
  constructor
  · intro location inside other
    by_cases here : location = ((Layout.ofRoot root).destination path).parts
    · rw [here] at other ⊢
      exact place other
    · rw [touches.inside location inside here other, reflects.places location inside other]
      apply exists_congr
      intro another
      apply and_congr_left
      rintro rfl
      refine (touches.isEmitted_iff ?_).symm
      rintro rfl
      exact here rfl
  · intro another isSource other
    by_cases here : another = path
    · subst here
      rw [Function.update_self]
      exact made isSource other
    · rw [Function.update_of_ne here]
      exact (reflects.made another ((touches.isEmitted_iff here).mp isSource) other).congr
        (touches.source isSource.shown here) (spared another here isSource other) touches.descriptor
  · exact described

end Touches

/-! ### Handling one change -/

/-- What a change and its event touch. -/
theorem SingleChange.touches (single : SingleChange root before changed event)
    (setting : Setting tools root request)
    (takes : act.Takes request.format (Layout.ofRoot root).outputDescriptor.parts
      ((Layout.ofRoot root).destination event.path).parts changed.contentAt? after.contentAt?) :
    Touches root event.path before after := by
  have shown := single.findable.shown
  constructor
  · exact shown
  · intro location away other
    rw [takes.outside (shown.inside setting.rooted) (output_prefix_descriptor _) away]
    exact single.elsewhere location other
  · intro location inside notPlace notDescriptor
    rw [takes.elsewhere notPlace notDescriptor]
    exact single.elsewhere location (ne_of_outside inside shown.outside).symm

/-- Nothing in the output changes with a source. -/
theorem SingleChange.output (single : SingleChange root before changed event) {location : Location}
    (inside : (Layout.ofRoot root).output.parts <+: location) :
    changed.contentAt? location = before.contentAt? location :=
  single.elsewhere location (ne_of_outside inside single.findable.shown.outside).symm

/-- A source that has been removed was there. -/
theorem SingleChange.was_emitted (single : SingleChange root before changed event)
    (gone : event.kind = .removed) (emitted : Dialect.ofPath event.path ≠ .declaration) :
    IsEmitted root before event.path := by
  obtain ⟨content, was⟩ := Option.ne_none_iff_exists'.mp (single.present gone)
  exact ⟨single.findable.shown, holdsFile_of_content single.findable.fits was, emitted⟩

/-- A source that has been removed is there no more. -/
theorem SingleChange.not_emitted (single : SingleChange root before changed event)
    (gone : event.kind = .removed) : ¬ IsEmitted root changed event.path := by
  intro still
  have held := still.held
  rw [single.isTrue.mp gone] at held
  cases held

/-- The product of a source that is gone is removed. -/
theorem SingleChange.removes (single : SingleChange root before changed event)
    (setting : Setting tools root request) (apart : AreApart root before)
    (reflects : Reflects tools root request rewrites seen before)
    (gone : event.kind = .removed) (emitted : Dialect.ofPath event.path ≠ .declaration)
    (takes : Act.removes.Takes request.format (Layout.ofRoot root).outputDescriptor.parts
      ((Layout.ofRoot root).destination event.path).parts changed.contentAt? after.contentAt?) :
    Reflects tools root request rewrites (Function.update seen event.path view) after := by
  have touches := single.touches setting takes
  have shown := single.findable.shown
  have isSource : IsEmitted root before event.path := single.was_emitted gone emitted
  have noSource : ¬ IsEmitted root after event.path := by
    intro still
    have same := takes.outside (shown.inside setting.rooted) (output_prefix_descriptor _) shown.outside
    exact single.not_emitted gone ((isEmitted_congr same).mp still)
  have removed : after.contentAt? = Function.update changed.contentAt?
      ((Layout.ofRoot root).destination event.path).parts none := takes
  -- No other source goes to the place that has been cleared.
  have alone : ∀ another, IsEmitted root after another →
      ((Layout.ofRoot root).destination another).parts ≠ ((Layout.ofRoot root).destination event.path).parts := by
    intro another isAnother same
    have different : another ≠ event.path := by
      rintro rfl
      exact noSource isAnother
    exact different (apart _ _ ((touches.isEmitted_iff different).mp isAnother) isSource same)
  apply touches.reflects reflects
  · intro another _ isAnother notDescriptor
    exact touches.inside _ (isAnother.shown.inside setting.rooted) (alone another isAnother) notDescriptor
  · intro _
    rw [removed, Function.update_self]
    constructor
    · rintro ⟨⟩
    · rintro ⟨another, isAnother, same⟩
      exact absurd same.symm (alone another isAnother)
  · exact fun still _ => absurd still noSource
  · by_cases here : ((Layout.ofRoot root).destination event.path).parts =
        (Layout.ofRoot root).outputDescriptor.parts
    · have isDescribing := (shown.destination_eq_iff setting.rooted setting.plain).mp here
      refine .inr ⟨original_of_not (isDescribing ▸ noSource), ?_⟩
      rw [removed, ← here, Function.update_self]
    · have different : event.path ≠ describing root :=
        fun same => here ((shown.destination_eq_iff setting.rooted setting.plain).mpr same)
      rw [touches.original_eq different, removed, Function.update_of_ne (Ne.symm here),
        single.output (output_prefix_descriptor _)]
      exact reflects.descriptor

/-- Where the output reflects the sources, a patch of its descriptor comes to a patch of what it is made of. -/
theorem Reflects.patches_again {patched : Option Text.Bytes}
    (reflects : Reflects tools root request rewrites seen before)
    (patches : Output.Patches request.format
      (before.contentAt? (Layout.ofRoot root).outputDescriptor.parts) patched) :
    Output.Patches request.format (original root before) patched := by
  rcases reflects.descriptor with declared | ⟨noOriginal, missing⟩
  · rw [declared.again patches]
    exact declared
  · rw [missing] at patches
    rw [noOriginal]
    exact patches

/-- The product of a source that is there is made again, and the descriptor is patched. -/
theorem SingleChange.makes (single : SingleChange root before changed event)
    (setting : Setting tools root request) (apart : AreApart root changed)
    (reflects : Reflects tools root request rewrites seen before) {bytes : Text.Bytes}
    (demands : Demands tools (.ofRoot root) request rewrites event changed (.makes bytes))
    (takes : (Act.makes bytes).Takes request.format (Layout.ofRoot root).outputDescriptor.parts
      ((Layout.ofRoot root).destination event.path).parts changed.contentAt? after.contentAt?) :
    Reflects tools root request rewrites
      (Function.update seen event.path (ownView root changed event.path)) after := by
  have touches := single.touches setting takes
  have shown := single.findable.shown
  have same {location : Location} (away : ¬ (Layout.ofRoot root).output.parts <+: location) :
      changed.contentAt? location = after.contentAt? location :=
    (takes.outside (shown.inside setting.rooted) (output_prefix_descriptor _) away).symm
  have sources (another : Path) (isAnother : IsEmitted root after another) : IsEmitted root changed another :=
    (isEmitted_congr (same isAnother.shown.outside)).mpr isAnother
  cases demands with | makes copy options _ emitted held chosen product _ =>
  have isSource : IsEmitted root changed event.path := ⟨shown, held, emitted⟩
  have isSourceAfter := (isEmitted_congr (same shown.outside)).mp isSource
  obtain ⟨patched, patches, contents⟩ := takes
  apply touches.reflects reflects
  · intro another different isAnother notDescriptor
    apply touches.inside _ (isAnother.shown.inside setting.rooted)
    · exact fun place => different (apart _ _ (sources another isAnother) isSource place)
    · exact notDescriptor
  · intro notDescriptor
    rw [contents, Function.update_of_ne notDescriptor, Function.update_self]
    exact iff_of_true rfl ⟨event.path, isSourceAfter, rfl⟩
  · intro _ notDescriptor
    refine ⟨copy, options, bytes, ?_, product_congr (same shown.outside) product, ?_⟩
    · rw [← same (Layout.descriptor_outside root)]
      exact chosen
    · rw [contents, Function.update_of_ne notDescriptor, Function.update_self]
  · rw [contents, Function.update_self]
    by_cases here : ((Layout.ofRoot root).destination event.path).parts =
        (Layout.ofRoot root).outputDescriptor.parts
    · left
      have isDescribing := (shown.destination_eq_iff setting.rooted setting.plain).mp here
      rw [← here, Function.update_self] at patches
      rw [Product, if_neg (by simp [isDescribing, dialect_describing, Dialect.isCompiled])] at product
      rw [original_of_isEmitted (isDescribing ▸ isSourceAfter), ← same (isShown_describing root).outside,
        ← isDescribing]
      rw [show changed.contentAt? event.path.parts = some bytes from product]
      exact patches
    · left
      have different : event.path ≠ describing root :=
        fun same => here ((shown.destination_eq_iff setting.rooted setting.plain).mpr same)
      rw [Function.update_of_ne (Ne.symm here), single.output (output_prefix_descriptor _)] at patches
      rw [touches.original_eq different]
      exact reflects.patches_again patches

/-- Nothing is done for a declaration. -/
theorem SingleChange.ignores (single : SingleChange root before changed event)
    (setting : Setting tools root request)
    (reflects : Reflects tools root request rewrites seen before)
    (declaration : Dialect.ofPath event.path = .declaration)
    (takes : Act.nothing.Takes request.format (Layout.ofRoot root).outputDescriptor.parts
      ((Layout.ofRoot root).destination event.path).parts changed.contentAt? after.contentAt?) :
    Reflects tools root request rewrites (Function.update seen event.path view) after := by
  have touches := single.touches setting takes
  have shown := single.findable.shown
  have same {location : Location} (inside : (Layout.ofRoot root).output.parts <+: location) :
      after.contentAt? location = before.contentAt? location := by
    rw [show after.contentAt? = changed.contentAt? from takes]
    exact single.output inside
  have other (another : Path) (tree : Tree) (isAnother : IsEmitted root tree another) : another ≠ event.path := by
    rintro rfl
    exact isAnother.emitted declaration
  have different : event.path ≠ describing root := by
    intro same
    rw [same, dialect_describing] at declaration
    cases declaration
  apply touches.reflects reflects
  · intro another _ isAnother _
    exact same (isAnother.shown.inside setting.rooted)
  · intro notDescriptor
    rw [same (shown.inside setting.rooted), reflects.places _ (shown.inside setting.rooted) notDescriptor]
    apply exists_congr
    intro another
    apply and_congr_left
    intro _
    constructor
    · exact fun isAnother => (touches.isEmitted_iff (other another before isAnother)).mpr isAnother
    · exact fun isAnother => (touches.isEmitted_iff (other another after isAnother)).mp isAnother
  · exact fun isSource => absurd declaration isSource.emitted
  · rw [touches.original_eq different, same (output_prefix_descriptor _)]
    exact reflects.descriptor

/-- Once the event about a single change has been handled, the output reflects the sources again. -/
theorem SingleChange.handles (single : SingleChange root before changed event)
    (setting : Setting tools root request) (apartBefore : AreApart root before) (apart : AreApart root changed)
    (reflects : Reflects tools root request rewrites seen before)
    (demands : Demands tools (.ofRoot root) request rewrites event changed act)
    (takes : act.Takes request.format (Layout.ofRoot root).outputDescriptor.parts
      ((Layout.ofRoot root).destination event.path).parts changed.contentAt? after.contentAt?) :
    Reflects tools root request rewrites
      (Function.update seen event.path (ownView root changed event.path)) after := by
  cases act with
  | makes bytes => exact single.makes setting apart reflects demands takes
  | removes =>
    cases demands with
    | removes gone emitted => exact single.removes setting apartBefore reflects gone emitted takes
  | nothing =>
    cases demands with
    | nothing reason =>
      rcases reason with declaration | ⟨there, absent⟩
      · exact single.ignores setting reflects declaration takes
      · exact absurd (single.isTrue.mpr absent) there

/-! ### Whole histories -/

/-- What is always true of a project that is developed. -/
structure Kept (tools : Toolchain) (root : Path) (request : Request) (seen : Path → Path → Bool)
    (session : Session) : Prop where
  ready : Ready root session
  away : ¬ (Layout.ofRoot root).sources.parts <+: session.temporary.parts
  apart : AreApart root session.tree
  reflects : Reflects tools root request (!Tools.rewritesDisabled session.environment) seen session.tree

/-- A source that changes is no copy of the compiler configuration. -/
theorem IsShown.ne_copy (shown : IsShown root path) {temporary : Path}
    (away : ¬ (Layout.ofRoot root).sources.parts <+: temporary.parts) (clock : Nat) :
    (Configuration.copyPath temporary clock).parts ≠ path.parts := by
  obtain ⟨parts, -, -, rfl⟩ := shown
  rw [Sources.sources_eq] at away ⊢
  apply ne_of_outside (List.prefix_append _ _)
  exact copyPath_outside (by decide) away clock

/-- After a single change the sources can still be built. -/
theorem SingleChange.ready {session changed : Session}
    (single : SingleChange root session.tree changed.tree event) (regular : changed.tree.IsRegular)
    (temporary : changed.temporary = session.temporary) (ready : Ready root session)
    (away : ¬ (Layout.ofRoot root).sources.parts <+: session.temporary.parts) : Ready root changed := by
  constructor
  · exact regular
  · rw [temporary]
    exact ready.plainTemporary
  · rw [temporary]
    exact ready.outside
  · intro clock
    rw [temporary, single.elsewhere _ (single.findable.shown.ne_copy away clock)]
    exact ready.free clock

/-- One change and its event keep what is always true. -/
theorem Kept.step {session changed after : Session} (setting : Setting tools root request)
    (kept : Kept tools root request seen session) (single : SingleChange root session.tree changed.tree event)
    (regular : changed.tree.IsRegular) (temporary : changed.temporary = session.temporary)
    (environment : changed.environment = session.environment) (apart : AreApart root changed.tree)
    (succeeds : Succeeds tools request (.ofRoot root) event changed after) :
    Kept tools root request (Function.update seen event.path (ownView root changed.tree event.path)) after := by
  have place := single.findable.isPlace setting.rooted setting.plain
  have readyChanged := single.ready regular temporary kept.ready kept.away
  obtain ⟨ready, temporaryAfter, environmentAfter, act, demands, takes⟩ :=
    succeeds.acts setting readyChanged ⟨place, single.isFile⟩
  constructor
  · exact ready
  · rw [temporaryAfter, temporary]
    exact kept.away
  · apply apart.congr
    intro location away
    exact takes.outside (single.findable.shown.inside setting.rooted) (output_prefix_descriptor _) away
  · rw [environment] at demands
    rw [environmentAfter, environment]
    exact single.handles setting kept.apart apart kept.reflects demands takes

/-- What is always true holds after a full build, and every change keeps it. -/
theorem Developed.kept (setting : Setting tools root request) (full : IsFull request)
    (developed : Developed tools root request session seen) : Kept tools root request seen session := by
  induction developed with
  | built ready away present found apart ran =>
    obtain ⟨unchanged, readyBuilt, temporary, environment, reflects, -⟩ :=
      run_reflects setting full ready present found apart ran
    constructor
    · exact readyBuilt
    · rw [temporary]
      exact away
    · exact apart.congr unchanged
    · rw [environment]
      exact reflects
  | changed _ regular temporary environment alters announces apart succeeds inductionHypothesis =>
    exact inductionHypothesis.step setting (alters.single announces) regular temporary environment apart succeeds

/-- Rebuilds agree with full builds. When sources have changed one by one since a full build, and each change
has been handled without a failure, every place in the output holds what a full build of the sources leaves
there now: files that it would not make are not there either. Two things are taken for granted. The module that
goes to the place would be the same in the view of the full build as in the view in which it was made last. And
the descriptor of the output, if it is what is asked for, has not gone with its source. -/
theorem rebuilds_agree (setting : Setting tools root request) (makes : tools.MakesBy (.ofRoot root) emit)
    (full : IsFull request) (developed : Developed tools root request session seen)
    (ready : Ready root fresh) (present : fresh.tree.status root = .ok .directory)
    (found : Sources.discover fresh.tree (.ofRoot root) "src/**/*" = .ok files)
    (same : ∀ location, ¬ (Layout.ofRoot root).output.parts <+: location →
      fresh.tree.contentAt? location = session.tree.contentAt? location)
    (environment : fresh.environment = session.environment)
    (ran : run tools request (.ofRoot root) fresh = (.ok outcome, complete))
    (location : Location) (inside : (Layout.ofRoot root).output.parts <+: location)
    (described : location = (Layout.ofRoot root).outputDescriptor.parts →
      (session.tree.contentAt? location).isSome)
    (current : ∀ path, IsEmitted root session.tree path →
      ((Layout.ofRoot root).destination path).parts = location →
        IsCurrent tools (.ofRoot root) request session.tree (seen path) (fullView root files fresh.tree) path) :
    session.tree.contentAt? location = complete.tree.contentAt? location := by
  have kept := developed.kept setting full
  have apart : AreApart root fresh.tree := kept.apart.congr same
  obtain ⟨unchanged, -, -, -, reflects, isThere⟩ := run_reflects setting full ready present found apart ran
  rw [environment] at reflects
  apply kept.reflects.agrees makes setting reflects
  · intro location away
    rw [unchanged location away, same location away]
  · exact inside
  · rintro rfl
    exact ⟨described rfl, isThere⟩
  · exact current

/-- Sources lie apart if those that a full build finds have different destinations. -/
theorem areApart_of_discover {tree : Tree} (regular : tree.IsRegular) (rooted : root.anchor = .root)
    (plain : root.IsPlain) (found : Sources.discover tree (.ofRoot root) "src/**/*" = .ok files)
    (distinct : ((emitted files).map (placeOf (.ofRoot root))).Nodup) : AreApart root tree := by
  have listed (path : Path) (isSource : IsEmitted root tree path) :
      SourceFile.ofPath (.ofRoot root) path ∈ emitted files :=
    (mem_emitted_of_discover regular rooted plain found).mpr ⟨isSource, rfl⟩
  intro path other isSource isOther same
  exact congrArg SourceFile.path
    (List.inj_on_of_nodup_map distinct (listed path isSource) (listed other isOther) same)

end

/-! ### A project that is developed -/

/-- The session after a full build of the project. -/
def builtFully? (session : Session) : Option Session :=
  match run plainCompiler.toolchain watchRequest (.ofRoot ⟨.root, ["p"]⟩) session with
  | (.ok _, after) => some after
  | (.error _, _) => none

/-- A session that was built fully is what a successful build has left. -/
theorem run_of_builtFully {session after : Session} (ended : builtFully? session = some after) :
    ∃ outcome, run plainCompiler.toolchain watchRequest (.ofRoot ⟨.root, ["p"]⟩) session =
      (.ok outcome, after) := by
  unfold builtFully? at ended
  split at ended
  · rename_i outcome final ran
    cases ended
    exact ⟨outcome, ran⟩
  · cases ended

/-- The session after the source with this name has been written. -/
def written? (name : String) (content : Text.Bytes) (session : Session) : Option Session :=
  (session.tree.write (loneFile name).path content).toOption.map fun tree => { session with tree }

/-- The session after the source with this name has been deleted. -/
def deleted? (name : String) (session : Session) : Option Session :=
  (session.tree.unlink (loneFile name).path).toOption.map fun tree => { session with tree }

/-- The source is found by a full build of the project, and it can be named in an event. -/
theorem loneFile_findable : IsFindable ⟨.root, ["p"]⟩ (loneFile "a.ts").path where
  shown := ⟨["a.ts"], List.cons_ne_nil _ _, List.forall_mem_singleton.mpr ⟨by decide, by decide⟩, by
    rw [Sources.sources_eq]
    rfl⟩
  literal := by decide +kernel
  fits := by decide +kernel

/-- The project has been built, then its source has been modified, and the event about this has been handled. -/
theorem developed_of_modified {text : String} {content : Text.Bytes} {built changed after : Session}
    (regular : (loneSession "a.ts" text).tree.IsRegular)
    (present : (loneSession "a.ts" text).tree.status ⟨.root, ["p"]⟩ = .ok .directory)
    (found : Sources.discover (loneSession "a.ts" text).tree (.ofRoot ⟨.root, ["p"]⟩) "src/**/*" =
      .ok [loneFile "a.ts"])
    (there : (loneSession "a.ts" text).tree.contentAt? (loneFile "a.ts").path.parts ≠ none)
    (foundChanged : Sources.discover changed.tree (.ofRoot ⟨.root, ["p"]⟩) "src/**/*" = .ok [loneFile "a.ts"])
    (builtFully : builtFully? (loneSession "a.ts" text) = some built)
    (written : written? "a.ts" content built = some changed)
    (handled : afterwards? (sourceEvent "a.ts" .modified) changed = some after) :
    Developed plainCompiler.toolchain ⟨.root, ["p"]⟩ watchRequest after
      (Function.update (fun _ => fullView ⟨.root, ["p"]⟩ [loneFile "a.ts"] (loneSession "a.ts" text).tree)
        (loneFile "a.ts").path (ownView ⟨.root, ["p"]⟩ changed.tree (loneFile "a.ts").path)) := by
  obtain ⟨outcome, ran⟩ := run_of_builtFully builtFully
  obtain ⟨tree, wrote, rfl⟩ := Option.map_eq_some_iff.mp written
  have ready := loneSession_ready regular
  have findable := loneFile_findable
  have distinct : ((emitted [loneFile "a.ts"]).map (placeOf (.ofRoot ⟨.root, ["p"]⟩))).Nodup := by decide +kernel
  have apart : AreApart ⟨.root, ["p"]⟩ (loneSession "a.ts" text).tree :=
    areApart_of_discover regular rfl (by decide) found distinct
  obtain ⟨unchanged, readyBuilt, -⟩ := run_reflects watchSetting watchRequest_isFull ready present found apart ran
  have changes := (readyBuilt.regular.write (findable.isPlace rfl (by decide)).plain
    (ok_of_toOption wrote)).2
  have away : ¬ (Layout.ofRoot ⟨.root, ["p"]⟩).sources.parts <+: ["t"] := by decide +kernel
  have alters : Alters (IsFindable ⟨.root, ["p"]⟩) built.tree.contentAt? tree.contentAt?
      (.modified (loneFile "a.ts").path) := by
    apply Alters.modified content findable
    · rw [unchanged _ findable.shown.outside]
      exact there
    · exact changes.contents
  have apartChanged : AreApart ⟨.root, ["p"]⟩ tree :=
    areApart_of_discover changes.regular rfl (by decide) foundChanged distinct
  have same : ({ built with tree } : Session).temporary = built.temporary := rfl
  have before := Developed.built ready away present found apart ran
  exact before.changed changes.regular same rfl alters rfl apartChanged (succeeds_of_afterwards handled)

/-- The paths at which a module looks for the module of the project. -/
def loneCandidates : List Path :=
  [⟨.root, ["p", "dist", "a"]⟩, ⟨.root, ["p", "dist", "a.js"]⟩, ⟨.root, ["p", "dist", "a", "index.js"]⟩]

/-- A module that imports itself looks for itself only. -/
theorem consults_lone {tree : Tree} {path : Path}
    (source : tree.contentAt? (loneFile "a.ts").path.parts = some (Text.Utf8.encode "import './a'"))
    (consults : Consults plainCompiler.toolchain (.ofRoot ⟨.root, ["p"]⟩) watchRequest tree
      (loneFile "a.ts").path path) : path ∈ loneCandidates := by
  obtain ⟨copy, options, content, raw, -, held, made, member⟩ := consults
  obtain rfl : Text.Utf8.encode "import './a'" = content := Option.some.inj (source.symm.trans held)
  have isRaw : raw = Text.Utf8.encode "import './a'" := by
    rw [watchSetting_makes _ _ _ _ made]
    exact (by decide +kernel : plainCompiler.emitted ⟨.root, ["p", "src", "a.ts"]⟩
      (Text.Utf8.encode "import './a'") = Text.Utf8.encode "import './a'")
  have all : consulted ((Layout.ofRoot ⟨.root, ["p"]⟩).destination (loneFile "a.ts").path)
      (Text.Utf8.encode "import './a'") = loneCandidates := by decide +kernel
  rw [isRaw, all] at member
  exact member

/-- A module that comes to import itself is what a full build makes of it. -/
theorem rebuilds_agree_of_modified : ∃ built changed after complete,
    builtFully? (loneSession "a.ts" "let a") = some built ∧
    written? "a.ts" (Text.Utf8.encode "import './a'") built = some changed ∧
    afterwards? (sourceEvent "a.ts" .modified) changed = some after ∧
    builtFully? after = some complete ∧
    after.tree.contentAt? ["p", "dist", "a.js"] = some (Text.Utf8.encode "import './a.js'") ∧
    after.tree.contentAt? ["p", "dist", "a.js"] = complete.tree.contentAt? ["p", "dist", "a.js"] := by
  have computed : ((builtFully? (loneSession "a.ts" "let a")).bind fun built =>
      (written? "a.ts" (Text.Utf8.encode "import './a'") built).bind fun changed =>
        (afterwards? (sourceEvent "a.ts" .modified) changed).bind fun after =>
          (builtFully? after).filter fun _ => decide (
            (Sources.discover changed.tree (.ofRoot ⟨.root, ["p"]⟩) "src/**/*").toOption = some [loneFile "a.ts"] ∧
            (Sources.discover after.tree (.ofRoot ⟨.root, ["p"]⟩) "src/**/*").toOption = some [loneFile "a.ts"] ∧
            (after.tree.status ⟨.root, ["p"]⟩).toOption = some .directory ∧
            after.tree.contentAt? (loneFile "a.ts").path.parts = some (Text.Utf8.encode "import './a'") ∧
            after.tree.contentAt? ["p", "dist", "a.js"] = some (Text.Utf8.encode "import './a.js'") ∧
            ∀ candidate ∈ loneCandidates,
              ownView ⟨.root, ["p"]⟩ changed.tree (loneFile "a.ts").path candidate =
                fullView ⟨.root, ["p"]⟩ [loneFile "a.ts"] after.tree candidate)).isSome := by
    decide +kernel
  obtain ⟨complete, computed⟩ := Option.isSome_iff_exists.mp computed
  obtain ⟨built, builtFully, computed⟩ := Option.bind_eq_some_iff.mp computed
  obtain ⟨changed, written, computed⟩ := Option.bind_eq_some_iff.mp computed
  obtain ⟨after, handled, computed⟩ := Option.bind_eq_some_iff.mp computed
  obtain ⟨completed, told⟩ := Option.filter_eq_some_iff.mp computed
  obtain ⟨foundChanged, foundAfter, present, source, product, views⟩ := of_decide_eq_true told
  refine ⟨built, changed, after, complete, builtFully, written, handled, completed, product, ?_⟩
  have developed := developed_of_modified (isRegular_of_entries (by decide +kernel))
    (ok_of_toOption (by decide +kernel)) (ok_of_toOption (by decide +kernel)) (by decide +kernel)
    (ok_of_toOption foundChanged) builtFully written handled
  obtain ⟨outcome, ran⟩ := run_of_builtFully completed
  have ready := (developed.kept watchSetting watchRequest_isFull).ready
  refine rebuilds_agree watchSetting watchSetting_makes watchRequest_isFull developed ready
    (ok_of_toOption present) (ok_of_toOption foundAfter) (fun _ _ => rfl) rfl ran
    ["p", "dist", "a.js"] (by decide +kernel) (fun same => absurd same (by decide +kernel)) ?_
  intro path isSource _ candidate consults
  have listed : SourceFile.ofPath (.ofRoot ⟨.root, ["p"]⟩) path ∈ emitted [loneFile "a.ts"] :=
    (mem_emitted_of_discover ready.regular rfl (by decide) (ok_of_toOption foundAfter)).mpr ⟨isSource, rfl⟩
  have lone := List.mem_singleton.mp (List.mem_filter.mp listed).1
  obtain rfl : path = (loneFile "a.ts").path := congrArg SourceFile.path lone
  rw [Function.update_self]
  exact .inl (views candidate (consults_lone source consults))

/-- A module is not built again when what it imports goes. So the specifier that has been resolved is left, and a
full build makes another module. -/
theorem rebuilds_keep_specifier :
    Setting plainCompiler.toolchain ⟨.root, ["p"]⟩ watchRequest ∧
    plainCompiler.toolchain.MakesBy (.ofRoot ⟨.root, ["p"]⟩) (fun _ => plainCompiler.emitted) ∧
    IsFull watchRequest ∧ Ready ⟨.root, ["p"]⟩ (loneSession "a.ts" "let a") ∧
    ∃ built created added deleted after complete,
      builtFully? (loneSession "a.ts" "let a") = some built ∧
      written? "b.ts" (Text.Utf8.encode "import './a'") built = some created ∧
      Succeeds plainCompiler.toolchain watchRequest (.ofRoot ⟨.root, ["p"]⟩) (sourceEvent "b.ts" .added)
        created added ∧
      deleted? "a.ts" added = some deleted ∧
      Succeeds plainCompiler.toolchain watchRequest (.ofRoot ⟨.root, ["p"]⟩) (sourceEvent "a.ts" .removed)
        deleted after ∧
      builtFully? after = some complete ∧
      after.tree.contentAt? ["p", "dist", "b.js"] = some (Text.Utf8.encode "import './a.js'") ∧
      complete.tree.contentAt? ["p", "dist", "b.js"] = some (Text.Utf8.encode "import './a'") := by
  have computed : ((builtFully? (loneSession "a.ts" "let a")).bind fun built =>
      (written? "b.ts" (Text.Utf8.encode "import './a'") built).bind fun created =>
        (afterwards? (sourceEvent "b.ts" .added) created).bind fun added =>
          (deleted? "a.ts" added).bind fun deleted =>
            (afterwards? (sourceEvent "a.ts" .removed) deleted).bind fun after =>
              (builtFully? after).filter fun complete => decide (
                after.tree.contentAt? ["p", "dist", "b.js"] = some (Text.Utf8.encode "import './a.js'") ∧
                complete.tree.contentAt? ["p", "dist", "b.js"] =
                  some (Text.Utf8.encode "import './a'"))).isSome := by
    decide +kernel
  obtain ⟨complete, computed⟩ := Option.isSome_iff_exists.mp computed
  obtain ⟨built, builtFully, computed⟩ := Option.bind_eq_some_iff.mp computed
  obtain ⟨created, written, computed⟩ := Option.bind_eq_some_iff.mp computed
  obtain ⟨added, first, computed⟩ := Option.bind_eq_some_iff.mp computed
  obtain ⟨deleted, gone, computed⟩ := Option.bind_eq_some_iff.mp computed
  obtain ⟨after, second, computed⟩ := Option.bind_eq_some_iff.mp computed
  obtain ⟨completed, told⟩ := Option.filter_eq_some_iff.mp computed
  obtain ⟨kept, resolved⟩ := of_decide_eq_true told
  exact ⟨watchSetting, watchSetting_makes, watchRequest_isFull,
    loneSession_ready (isRegular_of_entries (by decide +kernel)), built, created, added, deleted, after, complete,
    builtFully, written, succeeds_of_afterwards first, gone, succeeds_of_afterwards second, completed, kept,
    resolved⟩

end TreeBuild.Watch
