import TreeBuild.Proofs.Build.Handing
import TreeBuild.Proofs.Tree.Below
import TreeBuild.Proofs.Tree.Following

/-!
# What the stylesheets of a bundle are made of

For a bundle the style tool is called for the global stylesheet first, and then in place for each stylesheet that
is found in the output tree. The output is searched after the first call, so what is found is what was there
before and, if it was written below the output, the global stylesheet itself: it is then processed a second
time. Where it is written elsewhere, every stylesheet is processed once, and no output is written twice.

Nothing is assumed about links. A tool that can write its output does so and changes nothing else; that keeps
every other place where a file can be written.
-/
namespace TreeBuild

namespace Tree

variable {tree : Tree} {path : Path}

/-- A file can be written at a path. -/
def Writable (tree : Tree) (path : Path) : Prop := ∃ after, tree.write path [] = .ok after

/-- A path can be written to if it leads to a place for a file at which there is no directory. -/
theorem writable_iff : tree.Writable path ↔
    ∃ location, tree.locatePath .creation path = .ok location ∧ tree.get? location ≠ some .directory := by
  unfold Writable write
  cases led : tree.locatePath .creation path with
  | error refusal => simp
  | ok location =>
    cases present : tree.get? location with
    | none => simp [present]
    | some entry => cases entry <;> simp [present]

/-- Where files have come, a file can still be written at each path. -/
theorem Writable.grown (writable : tree.Writable path) {other : Tree} (grown : tree.Grown other) :
    other.Writable path := by
  obtain ⟨location, led, notDirectory⟩ := writable_iff.mp writable
  refine writable_iff.mpr ⟨location, grown.widened.locatePath (by decide) (.inl rfl) led, fun directory => ?_⟩
  have before := grown.isDirectoryAt location
  simp [isDirectoryAt, directory] at before
  exact notDirectory before

/-- The root is no path that can be written to. -/
theorem Writable.ne_nil (writable : tree.Writable path) : path.parts ≠ [] := by
  intro none
  obtain ⟨location, led, notDirectory⟩ := writable_iff.mp writable
  unfold locatePath locate at led
  split at led
  · cases led
  split at led
  · cases led
  split at led
  · cases led
  rw [none, walk] at led
  cases led
  exact notDirectory rfl

/-- The directory in which a file can be written is there. -/
theorem Writable.makeDirectories (writable : tree.Writable path) :
    tree.makeDirectories path.parent = (.ok (), tree) := by
  obtain ⟨location, led, -⟩ := writable_iff.mp writable
  exact makeDirectories_parent writable.ne_nil led

end Tree

/-- A tool that is found is still found when files have come. -/
theorem Tools.resolve_grown {session : Session} {root : Option Path} {name program : String} {other : Tree}
    (found : Tools.resolve session root name = .ok program) (grown : session.tree.Grown other) :
    ∃ again, Tools.resolve { session with tree := other } root name = .ok again := by
  unfold Tools.resolve at found ⊢
  dsimp only
  cases overridden : Tools.override? session.environment name with
  | some program => exact ⟨program, rfl⟩
  | none =>
    cases root with
    | none => exact ⟨_, rfl⟩
    | some root =>
      simp only [overridden, Option.elim, Tools.ownProgram?] at found ⊢
      cases looked : session.tree.isPresent (Tools.localPath root name) with
      | error fault => simp [looked, bind, Except.bind] at found
      | ok present =>
        obtain ⟨again, lookedAgain⟩ := grown.probe_answers looked
        unfold Tree.isPresent
        rw [lookedAgain]
        cases again <;> exact ⟨_, rfl⟩

/-- Looking for a tool changes nothing. -/
theorem Tools.find_apply (root : Option Path) (name : String) (session : Session) :
    Tools.find root name session = ((Tools.resolve session root name).mapError .file, session) := by
  have got : (get : Action Session) session = (.ok session, session) := rfl
  rw [Tools.find, bind_apply, got]
  dsimp only
  cases Tools.resolve session root name <;> rfl

namespace Auxiliary

variable {tools : Toolchain} {layout : Layout} {development : Bool} {styles : Path}

/-- The call that compiles one stylesheet. -/
def styleCall (layout : Layout) (development : Bool) (program : String) (entry output : Path) : Invocation where
  command := program ::
    (["-i", entry.toString, "-o", output.toString] ++ if development then [] else ["--minify"])
  directory := layout.root
  input := none

/-- Wherever the output of a call for a stylesheet can be written, it is written, and nothing else is done. -/
def WritesStyles (tools : Toolchain) (layout : Layout) (development : Bool) : Prop :=
  ∀ program entry output tree, output.isAbsolute → output.IsProper → tree.Writable output →
    ∃ content after text errors, tree.write output content = .ok after ∧
      tools.run (styleCall layout development program entry output) tree = (.finished 0 text errors, after)

/-- A call for one stylesheet, whatever program it names. -/
def IsStyleCall (layout : Layout) (development : Bool) (files : Path × Path) (call : Invocation × Tree) : Prop :=
  ∃ program, call.1 = styleCall layout development program files.1 files.2

/-- A tool that is found and ends with status zero answers with what it has written to its output. -/
theorem runTool_apply {session : Session} {name program text errors : String} {arguments : List String}
    {after : Tree} (found : Tools.resolve session (some layout.root) name = .ok program)
    (ran : tools.run ⟨program :: arguments, layout.root, none⟩ session.tree = (.finished 0 text errors, after)) :
    runTool tools layout name arguments session =
      (.ok text, session.called ⟨program :: arguments, layout.root, none⟩ after) := by
  have got : (get : Action Session) session = (.ok session, session) := rfl
  have called : Action.call tools ⟨program :: arguments, layout.root, none⟩ session =
      (.ok (.finished 0 text errors), session.called ⟨program :: arguments, layout.root, none⟩ after) := by
    rw [Action.call, bind_apply, got]
    simp only [ran]
    rfl
  rw [runTool, bind_apply, Tools.find_apply, found]
  dsimp only [Except.mapError]
  rw [bind_apply, called]
  rfl

/-- One stylesheet is compiled by one call, in a tree in which its directory has been made. -/
theorem buildStylesheet_apply {session : Session} {entry output : Path} {made after : Tree}
    {program text errors : String}
    (directories : session.tree.makeDirectories output.parent = (.ok (), made))
    (found : Tools.resolve { session with tree := made } (some layout.root) "tailwindcss" = .ok program)
    (ran : tools.run (styleCall layout development program entry output) made =
      (.finished 0 text errors, after)) :
    buildStylesheet tools layout development entry output session =
      (.ok output, { session with tree := made }.called
        (styleCall layout development program entry output) after) := by
  have run : runTool tools layout "tailwindcss" _ { session with tree := made } = _ := runTool_apply found ran
  rw [buildStylesheet, bind_apply, Action.alterFiles_apply, directories]
  dsimp only [Except.mapError]
  change ((runTool tools layout "tailwindcss" _ >>= fun _ => pure PUnit.unit) >>= fun _ => pure output) _ = _
  rw [bind_apply, bind_apply, run]
  rfl

/-- Stylesheets whose places can be written are compiled in place one after the other, each by one call. -/
theorem settle_inPlace (writes : WritesStyles tools layout development) {paths : List Path} {session : Session}
    (proper : ∀ path ∈ paths, path.isAbsolute ∧ path.IsProper)
    (writable : ∀ path ∈ paths, session.tree.Writable path)
    (found : ∃ program, Tools.resolve session (some layout.root) "tailwindcss" = .ok program) :
    ∃ calls final,
      Action.settle (paths.map fun path => buildStylesheet tools layout development path path) session =
        (.ok (paths.map .ok), final) ∧
      final.invocations = session.invocations ++ calls ∧
      List.Forall₂ (IsStyleCall layout development) (paths.map fun path => (path, path)) calls := by
  induction paths generalizing session with
  | nil => exact ⟨[], session, rfl, (List.append_nil _).symm, .nil⟩
  | cons path rest inductionHypothesis =>
    obtain ⟨program, resolved⟩ := found
    have here := writable path List.mem_cons_self
    obtain ⟨absolute, isProper⟩ := proper path List.mem_cons_self
    obtain ⟨content, after, text, errors, written, ran⟩ := writes program path path session.tree absolute isProper here
    have first := buildStylesheet_apply here.makeDirectories resolved ran
    have grown := (Tree.write_grown written).1
    let next := session.called (styleCall layout development program path path) after
    obtain ⟨calls, final, settled, invocations, each⟩ := @inductionHypothesis next
      (fun other member => proper other (List.mem_cons_of_mem _ member))
      (fun other member => (writable other (List.mem_cons_of_mem _ member)).grown grown)
      (Tools.resolve_grown resolved grown)
    refine ⟨(styleCall layout development program path path, session.tree) :: calls, final,
      Action.settle_cons first nofun settled, ?_, .cons ⟨program, rfl⟩ each⟩
    rw [invocations]
    exact List.append_assoc _ _ _

/-! ### The whole stage -/

/-- The names that stylesheets have. -/
def isStylesheet (name : String) : Bool := ".css".toList.isSuffixOf name.toList

/-- The stylesheets of a bundle can be made: the global one is there, the directories for its output can be
made and the output written, the tool is found, and everything that is then below the output tree and named like
a stylesheet can be written, too. `made` is the tree with the directories and `sheet` the one with the output, be
it an empty one; `top` is where the output tree is. -/
structure CanStyle (layout : Layout) (styles : Path) (session : Session) (output : Path) (top : Location)
    (made sheet : Tree) : Prop where
  sound : session.tree.IsSound
  named : ∀ location entry, session.tree.get? location = some entry → ∀ part ∈ location, Path.IsName part
  root : layout.root.isAbsolute ∧ layout.root.IsProper
  outputTree : layout.output.isAbsolute ∧ layout.output.IsProper
  located : session.tree.locatePath .target layout.output = .ok top
  entry : session.tree.isPresent (layout.resolve styles) = .ok true
  told : (stylesheetPath layout session).1 = .ok output
  directories : session.tree.makeDirectories output.parent = (.ok (), made)
  found : ∃ program, Tools.resolve { session with tree := made } (some layout.root) "tailwindcss" = .ok program
  written : made.write output [] = .ok sheet
  files : ∀ location, made.Lists isStylesheet top location → made.get? location ≠ some .directory
  writable : ∀ location, sheet.Lists isStylesheet top location →
    sheet.Writable (Tree.pathFrom layout.output top location)

/-- What is written at a place is found again as a stylesheet of the output tree. -/
def IsFoundAgain (top place : Location) : Prop :=
  Tree.isBelow place top ∧ isStylesheet (place.getLast?.getD "")

/-- Where the global stylesheet is written is told without changing anything, and is read from the root. -/
theorem stylesheetPath_ends {before : Session → Prop} :
    Ends before (stylesheetPath layout)
      (fun output session => (∃ given : Path, given.IsProper ∧ output = layout.resolve given) ∧ before session)
      before := by
  unfold stylesheetPath Descriptor.path
  refine Ends.bind (Descriptor.given?_keeps layout "style") fun given => ?_
  split
  · exact .pure fun _ holds => ⟨⟨_, Path.ofString_proper _, rfl⟩, holds⟩
  · rename_i value
    split
    · rename_i path told
      refine .pure fun _ holds => ⟨⟨path, ?_, rfl⟩, holds⟩
      unfold Descriptor.pathOf at told
      split at told
      · cases told
        exact Path.ofString_proper _
      · cases told
    · exact .throw fun _ holds => holds

namespace CanStyle

variable {session : Session} {output : Path} {top : Location} {made sheet : Tree}
  (can : CanStyle layout styles session output top made sheet)
include can

/-- Where the processed style sheet goes is an absolute path without empty parts. -/
theorem stylesheetPath_apply : stylesheetPath layout session = (.ok output, session) ∧
    output.isAbsolute ∧ output.IsProper := by
  have ends := (@stylesheetPath_ends layout (· = session)).outcome session rfl
  have told := can.told
  rcases ran : stylesheetPath layout session with ⟨fault | path, after⟩
  · simp [ran] at told
  · simp only [ran, Except.ok.injEq] at told ends
    obtain ⟨⟨given, proper, same⟩, rfl⟩ := ends
    refine ⟨by rw [told], ?_⟩
    subst told same
    unfold Layout.resolve Path.join
    split
    · rename_i absolute
      exact ⟨absolute, proper⟩
    · exact ⟨can.root.1, fun part member =>
        (List.mem_append.mp member).elim (can.root.2 part) (proper part)⟩

/-- The directory of the processed style sheet is made with those above it. -/
theorem made_eq : made = (session.tree.makeDirectories output.parent).2 := by
  rw [can.directories]

/-- Making it leaves everything that was there, and the tree stays sound. -/
theorem made_widened : made.IsSound ∧ session.tree.Widened made := by
  rw [can.made_eq]
  exact can.sound.makeDirectories output.parent

/-- What is found below the output tree once the global stylesheet is written was there before, or is the
stylesheet itself. -/
theorem lists_iff {place : Location} {content : Text.Bytes} {executable : Bool} (inside : place ≠ [])
    (location : Location) : (made.put place (.file content executable)).Lists isStylesheet top location ↔
      session.tree.Lists isStylesheet top location ∨ IsFoundAgain top place ∧ location = place := by
  by_cases same : location = place
  · subst same
    have present : ((made.put location (.file content executable)).get? location).isSome := by
      simp [Tree.get?_put_self made inside]
    refine ⟨fun lists => .inr ⟨⟨lists.below, lists.named⟩, rfl⟩, ?_⟩
    rintro (lists | ⟨⟨below, named⟩, -⟩)
    · exact ⟨present, lists.below, lists.named⟩
    · exact ⟨present, below, named⟩
  · have kept : (made.put place (.file content executable)).get? location = made.get? location :=
      Tree.get?_put_of_ne made same _
    constructor
    · intro lists
      have listed : made.Lists isStylesheet top location := ⟨kept ▸ lists.present, lists.below, lists.named⟩
      have spared := (Tree.Ground.makeDirectories_grows session.tree output.parent).spares location id
      rw [← can.made_eq] at spared
      rcases spared with old | ⟨-, -, new⟩
      · exact .inl ⟨old ▸ listed.present, lists.below, lists.named⟩
      · exact absurd new (can.files location listed)
    · rintro (lists | ⟨-, impossible⟩)
      · refine ⟨?_, lists.below, lists.named⟩
        obtain ⟨entry, present⟩ := Option.isSome_iff_exists.mp lists.present
        have widened := can.made_widened.2 location
        rw [kept]
        rw [present] at widened
        generalize made.get? location = other at widened
        cases widened with
        | grown grown => cases grown <;> rfl
      · exact absurd impossible same

/-- Everything that is found has a path of names, and can be written, whatever has been written before. -/
theorem writable_of_lists {place location : Location} {content : Text.Bytes} {executable : Bool}
    (led : made.locatePath .creation output = .ok place) (inside : place ≠ [])
    (fits : Entry.Grown (made.get? place) (some (.file content executable)))
    (lists : (made.put place (.file content executable)).Lists isStylesheet top location) :
    (Tree.pathFrom layout.output top location).IsProper ∧
      (made.put place (.file content executable)).Writable (Tree.pathFrom layout.output top location) := by
  obtain ⟨again, other, ledAgain, -, fitsOther, same⟩ := Tree.write_put can.written
  obtain rfl : place = again := Except.ok.inj (led.symm.trans ledAgain)
  have grown : sheet.Grown (made.put place (.file content executable)) := by
    intro here
    rw [same]
    by_cases at_place : here = place
    · subst at_place
      rw [Tree.get?_put_self made inside, Tree.get?_put_self made inside]
      exact .replaced ..
    · rw [Tree.get?_put_of_ne made at_place, Tree.get?_put_of_ne made at_place]
      exact .same _
  have listed : sheet.Lists isStylesheet top location := by
    rw [same]
    exact (can.lists_iff inside location).mpr ((can.lists_iff inside location).mp lists)
  refine ⟨fun part member => ?_, (can.writable location listed).grown grown⟩
  rcases List.mem_append.mp member with front | back
  · exact can.outputTree.2 part front
  · have names : ∀ part ∈ location, Path.IsName part := by
      rcases (can.lists_iff inside location).mp lists with old | ⟨-, rfl⟩
      · obtain ⟨entry, present⟩ := Option.isSome_iff_exists.mp old.present
        exact can.named location entry present
      · obtain ⟨links, leads⟩ := Tree.leads_of_locatePath can.stylesheetPath_apply.2.2
          ((Tree.Grown.refl made).locatePath_of_creation led)
        exact (leads.isDirect (.root made)).names
    exact (names part (List.mem_of_mem_drop back)).toIsPart

end CanStyle

/-- Results that are all answers are answered. -/
theorem allOrFirst_ok {Answer : Type} (answers : List Answer) :
    Action.allOrFirst (answers.map .ok) = .ok answers := by
  induction answers with
  | nil => rfl
  | cons answer rest inductionHypothesis => simp [Action.allOrFirst, inductionHypothesis, Except.map]

/-- Actions that all succeed give their answers together. -/
theorem all_apply {Answer : Type} {actions : List (Action Answer)} {answers : List Answer} {session final : Session}
    (settled : Action.settle actions session = (.ok (answers.map .ok), final)) :
    Action.all actions session = (.ok answers, final) := by
  rw [Action.all, bind_apply, settled]
  simp only [allOrFirst_ok]
  rfl

/-- The steps of making the styles of a bundle. -/
theorem buildStyles_apply {session middle final : Session} {output : Path} {found others : List Path}
    (entry : session.tree.isPresent (layout.resolve styles) = .ok true)
    (told : stylesheetPath layout session = (.ok output, session))
    (first : buildStylesheet tools layout development (layout.resolve styles) output session = (.ok output, middle))
    (search : middle.tree.pathsBelow isStylesheet layout.output = .ok found)
    (inPlace : Action.all ((found.mergeSort listedBefore).map fun path =>
      buildStylesheet tools layout development path path) middle = (.ok others, final)) :
    buildStyles tools layout styles development true session = (.ok (output :: others), final) := by
  have present : Action.askFiles (·.isPresent (layout.resolve styles)) session = (.ok true, session) := by
    rw [Action.askFiles, Action.ask_apply, entry]
    rfl
  have emitted : emittedStylesheets layout middle = (.ok (found.mergeSort listedBefore), middle) := by
    unfold isStylesheet at search
    rw [emittedStylesheets, bind_apply, Action.askFiles, Action.ask_apply, search]
    rfl
  unfold buildStyles
  rw [bind_apply, present]
  dsimp only
  rw [if_pos rfl, bind_apply, told]
  dsimp only
  rw [bind_apply, first]
  dsimp only
  rw [if_pos rfl, bind_apply, emitted]
  dsimp only
  rw [bind_apply, inPlace]
  rfl

/-- For a bundle the tool is called for the global stylesheet, and then in place for each stylesheet that is found
in the output tree, in the order of their paths, and the answer lists these outputs. No path is found twice. What
is found is what was there before, and the global stylesheet itself if it was written below the output tree under
a stylesheet's name. If it was not, and its path is none of those that were there, each stylesheet that was there
is processed once, and no output is named by two calls. -/
theorem buildStyles_bundles {session : Session} {output : Path} {top : Location} {made sheet : Tree}
    (writes : WritesStyles tools layout development)
    (can : CanStyle layout styles session output top made sheet) :
    ∃ before place emitted calls final,
      session.tree.pathsBelow isStylesheet layout.output = .ok before ∧
      made.locatePath .creation output = .ok place ∧
      buildStyles tools layout styles development true session = (.ok (output :: emitted), final) ∧
      final.invocations = session.invocations ++ calls ∧
      List.Forall₂ (IsStyleCall layout development)
        ((layout.resolve styles, output) :: emitted.map fun path => (path, path)) calls ∧
      emitted.Nodup ∧
      (∀ path, path ∈ emitted ↔
        path ∈ before ∨ IsFoundAgain top place ∧ path = Tree.pathFrom layout.output top place) ∧
      (¬ IsFoundAgain top place → output ∉ before → emitted.Perm before ∧ (output :: emitted).Nodup) := by
  obtain ⟨program, resolved⟩ := can.found
  obtain ⟨pathTold, absolute, proper⟩ := can.stylesheetPath_apply
  obtain ⟨content, after, text, errors, written, ran⟩ :=
    writes program (layout.resolve styles) output made absolute proper ⟨sheet, can.written⟩
  have first := buildStylesheet_apply can.directories resolved ran
  obtain ⟨place, executable, led, inside, fits, rfl⟩ := Tree.write_put written
  have grown := (Tree.write_grown written).1
  have located := (can.made_widened.2.trans grown.widened).locatePath (by decide) (.inl rfl) can.located
  obtain ⟨before, toldBefore, distinctBefore, memBefore⟩ := can.sound.pathsBelow isStylesheet can.located
  obtain ⟨found, toldFound, distinct, memFound⟩ := (can.made_widened.1.write written).pathsBelow isStylesheet located
  have perm := List.mergeSort_perm found listedBefore
  have each : ∀ path ∈ found.mergeSort listedBefore, (path.isAbsolute ∧ path.IsProper) ∧
      (made.put place (.file content executable)).Writable path := by
    intro path member
    obtain ⟨location, lists, rfl⟩ := (memFound path).mp (perm.mem_iff.mp member)
    obtain ⟨isProper, writable⟩ := can.writable_of_lists led inside fits lists
    exact ⟨⟨can.outputTree.1, isProper⟩, writable⟩
  have stillFound := Tools.resolve_grown resolved grown
  let next := { session with tree := made }.called
    (styleCall layout development program (layout.resolve styles) output) (made.put place (.file content executable))
  obtain ⟨calls, final, settled, invocations, inPlace⟩ := @settle_inPlace _ _ _ writes _ next
    (fun path member => (each path member).1) (fun path member => (each path member).2)
    stillFound
  have members (path : Path) : path ∈ found.mergeSort listedBefore ↔
      path ∈ before ∨ IsFoundAgain top place ∧ path = Tree.pathFrom layout.output top place := by
    rw [perm.mem_iff, memFound, memBefore]
    simp only [can.lists_iff inside]
    constructor
    · rintro ⟨location, old | ⟨again, rfl⟩, rfl⟩
      · exact .inl ⟨location, old, rfl⟩
      · exact .inr ⟨again, rfl⟩
    · rintro (⟨location, old, rfl⟩ | ⟨again, rfl⟩)
      · exact ⟨location, .inl old, rfl⟩
      · exact ⟨place, .inr ⟨again, rfl⟩, rfl⟩
  have distinctSorted := perm.nodup_iff.mpr distinct
  refine ⟨before, place, found.mergeSort listedBefore,
    (styleCall layout development program (layout.resolve styles) output, made) :: calls, final, toldBefore, led,
    ?_, ?_, .cons ⟨program, rfl⟩ inPlace, distinctSorted, members, fun notAgain apart => ?_⟩
  · exact buildStyles_apply can.entry pathTold first toldFound (all_apply settled)
  · rw [invocations]
    exact List.append_assoc _ _ _
  · have same (path : Path) : path ∈ found.mergeSort listedBefore ↔ path ∈ before := by
      rw [members]
      exact or_iff_left fun again => notAgain again.1
    refine ⟨(List.perm_ext_iff_of_nodup distinctSorted distinctBefore).mpr same,
      List.nodup_cons.mpr ⟨?_, distinctSorted⟩⟩
    exact fun member => apart ((same output).mp member)

/-- A tool that writes an empty stylesheet wherever it is asked for one. -/
def styleTool : Toolchain where
  run call tree :=
    match call.command with
    | _ :: _ :: _ :: _ :: output :: _ =>
      match tree.write (Path.ofString output) [] with
      | .ok after => (.finished 0 "" "", after)
      | .error _ => (.finished 1 "" "", tree)
    | _ => (.finished 1 "" "", tree)

/-- The tool writes the style sheet that it is called for, and nothing else. -/
theorem styleTool_writesStyles (layout : Layout) (development : Bool) :
    WritesStyles styleTool layout development := by
  rintro program entry output tree absolute proper ⟨after, written⟩
  refine ⟨[], after, "", "", written, ?_⟩
  simp [styleTool, styleCall, Path.ofString_toString absolute proper, written]

/-- A project with a global stylesheet, this descriptor and this output. -/
def sheetSession (descriptor : String) (output : List (Location × Entry)) : Session where
  tree := ⟨[(["p"], .directory), (["p", "src"], .directory), (["p", "src", "components"], .directory),
    (["p", "src", "components", "index.css"], .file [] false),
    (["p", "package.json"], .file (Text.Utf8.encode descriptor) false), (["p", "dist"], .directory)] ++ output⟩
  environment := []
  directory := ⟨.root, ["p"]⟩
  temporary := ⟨.root, ["tmp"]⟩
  clock := 0

/-- A path of that project. -/
def sheetPath (parts : List String) : Path := ⟨.root, "p" :: parts⟩

/-- The project whose global stylesheet is written beside its output tree, in which there is another one. -/
def siteSession : Session :=
  sheetSession "\x7b\"style\": \"site/all.css\"\x7d" [(["p", "dist", "a.css"], .file [] false)]

/-- The tree of that project with the directory for the global stylesheet. -/
def siteMade : Tree := (siteSession.tree.makeDirectories (sheetPath ["site"])).2

/-- The tree with the global stylesheet. -/
def siteSheet : Tree := siteMade.put ["p", "site", "all.css"] (.file [] false)

/-- In the project with the site, style sheets can be processed. -/
theorem siteSession_canStyle : CanStyle (.ofRoot (sheetPath [])) (Path.ofString "src/components/index.css")
    siteSession (sheetPath ["site", "all.css"]) ["p", "dist"] siteMade siteSheet := by
  have regular : siteSession.tree.IsRegular := Tree.isRegular_of_entries (by decide +kernel)
  have names (parts : List String) (isPlain : (sheetPath parts).IsPlain) : (sheetPath parts).IsProper := isPlain.proper
  have inside {tree : Tree} {location : Location} (lists : tree.Lists isStylesheet ["p", "dist"] location) :
      ∃ entry, (location, entry) ∈ tree.entries ∧ tree.get? location = some entry := by
    obtain ⟨entry, present⟩ := Option.isSome_iff_exists.mp lists.present
    have nonempty : location ≠ [] := by
      rintro rfl
      exact absurd lists.below (by decide)
    exact ⟨entry, Tree.mem_entries_of_get? present nonempty, present⟩
  exact {
    sound := ⟨by decide +kernel, regular.reached⟩
    named := regular.named
    root := ⟨rfl, names [] (by decide +kernel)⟩
    outputTree := ⟨rfl, names ["dist"] (by decide +kernel)⟩
    located := ok_of_toOption (by decide +kernel)
    entry := ok_of_toOption (by decide +kernel)
    told := ok_of_toOption (by decide +kernel)
    directories := Prod.ext (ok_of_toOption (by decide +kernel)) rfl
    found := ⟨"tailwindcss", ok_of_toOption (by decide +kernel)⟩
    written := by
      have place : siteMade.locatePath .creation (sheetPath ["site", "all.css"]) = .ok ["p", "site", "all.css"] :=
        ok_of_toOption (by decide +kernel)
      have none : siteMade.get? ["p", "site", "all.css"] = none := by decide +kernel
      rw [Tree.write, place]
      simp only [none]
      rfl
    files := fun location lists directory => by
      have each : ∀ item ∈ siteMade.entries, Tree.isBelow item.1 ["p", "dist"] →
          isStylesheet (item.1.getLast?.getD "") → item.2 ≠ .directory := by
        decide +kernel
      obtain ⟨entry, member, present⟩ := inside lists
      exact each _ member lists.below lists.named (Option.some.inj (present.symm.trans directory))
    writable := fun location lists => by
      have each : ∀ item ∈ siteSheet.entries, Tree.isBelow item.1 ["p", "dist"] →
          isStylesheet (item.1.getLast?.getD "") →
            (siteSheet.write (Tree.pathFrom (sheetPath ["dist"]) ["p", "dist"] item.1) []).toOption.isSome := by
        decide +kernel
      obtain ⟨entry, member, -⟩ := inside lists
      obtain ⟨after, written⟩ := Option.isSome_iff_exists.mp (each _ member lists.below lists.named)
      exact ⟨after, ok_of_toOption written⟩ }

/-- Written beside the output tree, the global stylesheet is not found again, and the other one is processed once. -/
theorem buildStyles_bundles_of_site :
    WritesStyles styleTool (.ofRoot (sheetPath [])) false ∧
      CanStyle (.ofRoot (sheetPath [])) (Path.ofString "src/components/index.css") siteSession
        (sheetPath ["site", "all.css"]) ["p", "dist"] siteMade siteSheet ∧
      ∃ emitted final, buildStyles styleTool (.ofRoot (sheetPath [])) (Path.ofString "src/components/index.css")
          false true siteSession = (.ok (sheetPath ["site", "all.css"] :: emitted), final) ∧
        emitted.Perm [sheetPath ["dist", "a.css"]] ∧ (sheetPath ["site", "all.css"] :: emitted).Nodup := by
  have writes := styleTool_writesStyles (.ofRoot (sheetPath [])) false
  obtain ⟨before, place, emitted, calls, final, listed, led, ran, -, -, -, -, apart⟩ :=
    buildStyles_bundles writes siteSession_canStyle
  have place_eq : siteMade.locatePath .creation (sheetPath ["site", "all.css"]) = .ok ["p", "site", "all.css"] :=
    ok_of_toOption (by decide +kernel)
  have before_eq : siteSession.tree.pathsBelow isStylesheet (sheetPath ["dist"]) =
      .ok [sheetPath ["dist", "a.css"]] := ok_of_toOption (by decide +kernel)
  obtain rfl : ["p", "site", "all.css"] = place := Except.ok.inj (place_eq.symm.trans led)
  obtain rfl : [sheetPath ["dist", "a.css"]] = before := Except.ok.inj (before_eq.symm.trans listed)
  obtain ⟨perm, distinct⟩ := apart (fun again => absurd again.1 (by decide)) (by decide)
  exact ⟨writes, siteSession_canStyle, emitted, final, ran, perm, distinct⟩

/-- The stage in a project that does not say where its global stylesheet goes, and has no other one. -/
def unplacedStyles : Except Fault (List Path) × Session :=
  buildStyles styleTool (.ofRoot (sheetPath [])) (Path.ofString "src/components/index.css") false true
    (sheetSession "\x7b\x7d" [])

/-- Where a project does not say otherwise, its global stylesheet is written into the output tree and found there
again: both calls name it as their output, and it is listed twice. -/
theorem buildStyles_repeats :
    unplacedStyles.1.toOption = some [sheetPath ["dist", "bundle.css"], sheetPath ["dist", "bundle.css"]] ∧
      unplacedStyles.2.invocations.map (fun call => call.1.command) =
        [["tailwindcss", "-i", "/p/src/components/index.css", "-o", "/p/dist/bundle.css", "--minify"],
          ["tailwindcss", "-i", "/p/dist/bundle.css", "-o", "/p/dist/bundle.css", "--minify"]] := by
  decide +kernel

end Auxiliary

end TreeBuild
