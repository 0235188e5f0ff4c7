import TreeBuild.Proofs.Build.Stages
import TreeBuild.Proofs.Text.Encoding
import TreeBuild.Proofs.Tree.Contents

/-!
# Reading texts and descriptors

What a build reads depends on the content of the file alone: the text is decoded, and a descriptor is read
from the text. The project's descriptor counts as empty where it is missing or malformed, and decides over
the options of the compiler.
-/
namespace TreeBuild

open TreeBuild.Tree

/-- The text that is read from a file. -/
def Session.textAt (tree : Tree) (path : Path) : Except Fault String :=
  match tree.read path with
  | .error fault => .error (.file fault)
  | .ok bytes =>
    match Text.Utf8.decode bytes with
    | .ok text => .ok (String.ofList (Text.unifyLineEnds text.toList))
    | .error error => .error (.undecodable error)

/-- A file that has been written without carriage returns is read as it was written. -/
theorem Session.textAt_encode {tree : Tree} {path : Path} {text : String}
    (held : tree.read path = .ok (Text.Utf8.encode text)) (none : '\r' ∉ text.toList) :
    Session.textAt tree path = .ok text := by
  simp only [Session.textAt, held, Text.Utf8.decode_encode, Text.unifyLineEnds_of_notMem none,
    String.ofList_toList]

/-- A question to the tree changes nothing, whether it is answered or not. -/
theorem Action.ask_apply {Answer : Type} (question : Tree → Except Fault Answer) (session : Session) :
    ask question session = (question session.tree, session) := by
  have got : (get : Action Session) session = (.ok session, session) := rfl
  unfold ask
  rw [bind_apply, got]
  dsimp only
  cases question session.tree <;> rfl

/-- A change of the tree is made as far as it goes. -/
theorem Action.alterFiles_apply (change : Tree → Except FileFault Unit × Tree) (session : Session) :
    Action.alterFiles change session =
      ((change session.tree).1.mapError .file, { session with tree := (change session.tree).2 }) := by
  have got : (get : Action Session) session = (.ok session, session) := rfl
  unfold Action.alterFiles
  rw [bind_apply, got]
  dsimp only
  rcases change session.tree with ⟨_ | _, tree⟩ <;> rfl

/-- Reading a text changes nothing, whether it fails or not. -/
theorem Action.readText_apply (path : Path) (session : Session) :
    readText path session = (Session.textAt session.tree path, session) := by
  unfold readText Session.textAt askFiles
  rw [bind_apply, ask_apply]
  dsimp only
  cases session.tree.read path with
  | error fault => rfl
  | ok bytes =>
    simp only [Except.mapError]
    cases Text.Utf8.decode bytes <;> rfl

/-- Writing a text changes the tree, or it is refused and changes nothing. -/
theorem Action.writeText_apply (path : Path) (text : String) (session : Session) :
    Action.writeText path text session =
      match session.tree.write path (Text.Utf8.encode text) with
      | .ok tree => (.ok (), { session with tree })
      | .error fault => (.error (.file fault), session) := by
  unfold Action.writeText Action.changeFiles Action.askFiles
  rw [bind_apply, Action.ask_apply]
  dsimp only
  cases session.tree.write path (Text.Utf8.encode text) <;> rfl

/-- A result that is no interruption is told with those of the actions that follow. -/
theorem Action.settle_cons {Answer : Type} {action : Action Answer} {rest : List (Action Answer)}
    {session middle after : Session} {result : Except Fault Answer} {results : List (Except Fault Answer)}
    (first : action session = (result, middle)) (calm : result ≠ .error .interrupted)
    (others : settle rest middle = (.ok results, after)) :
    settle (action :: rest) session = (.ok (result :: results), after) := by
  have goesOn : (settle rest >>= fun later => pure (result :: later)) middle =
      (.ok (result :: results), after) := by
    rw [bind_apply, others]
    rfl
  rw [settle, bind_apply, attempt, first]
  cases result with
  | ok answer => exact goesOn
  | error fault =>
    cases fault with
    | interrupted => exact absurd rfl calm
    | _ => exact goesOn

/-- The answer of a reading is the text of the file. -/
theorem Ends.readText_textAt {before : Session → Prop} (path : Path) :
    Ends before (Action.readText path)
      (fun answer session => Session.textAt session.tree path = .ok answer ∧ before session) before := by
  refine ⟨fun session start => ?_⟩
  rw [Action.readText_apply]
  cases read : Session.textAt session.tree path with
  | error fault => exact start
  | ok text => exact ⟨read, start⟩

/-- Reading a text tells what the tree holds, or why it holds none. -/
theorem Ends.attempt_readText {before failed : Session → Prop} (path : Path) :
    Ends before (Action.attempt (Action.readText path))
      (fun result session => result = Session.textAt session.tree path ∧ before session) failed := by
  refine ⟨fun session start => ?_⟩
  unfold Action.attempt
  rw [Action.readText_apply]
  exact ⟨rfl, start⟩

/-- What the descriptor of a project says, given its content. One that cannot be read has no answer. -/
def Descriptor.valueIn? : Option Text.Bytes → Option Json
  | none => some (.obj [])
  | some bytes =>
    match Text.Utf8.decode bytes with
    | .error _ => none
    | .ok text =>
      match Json.read (String.ofList (Text.unifyLineEnds text.toList)) with
      | .ok value => some value
      | .error (.malformed _ _ _ _) => some (.obj [])
      | .error _ => none

/-- The options that a request leads to where the descriptor has this content. -/
def CompilerOptions.Chosen (request : Request) (content : Option Text.Bytes) (tsconfig : Option Path)
    (options : CompilerOptions) : Prop :=
  ∃ value, Descriptor.valueIn? content = some value ∧
    CompilerOptions.choose request value tsconfig = .ok options

/-- The options that requests lead to differ in nothing but the copy of the configuration. -/
theorem CompilerOptions.Chosen.unique {request : Request} {content : Option Text.Bytes}
    {copy other : Option Path} {options others : CompilerOptions} (first : Chosen request content copy options)
    (second : Chosen request content other others) :
    { options with tsconfig := none } = { others with tsconfig := none } := by
  obtain ⟨value, told, chosen⟩ := first
  obtain ⟨again, toldAgain, chosenAgain⟩ := second
  rw [told] at toldAgain
  cases toldAgain
  unfold choose at chosen chosenAgain
  obtain ⟨external, members, chosen⟩ := exists_of_bind_eq_ok chosen
  obtain ⟨platform, given, chosen⟩ := exists_of_bind_eq_ok chosen
  obtain ⟨_, membersAgain, chosenAgain⟩ := exists_of_bind_eq_ok chosenAgain
  obtain ⟨_, givenAgain, chosenAgain⟩ := exists_of_bind_eq_ok chosenAgain
  rw [members] at membersAgain
  rw [given] at givenAgain
  cases membersAgain
  cases givenAgain
  cases chosen
  cases chosenAgain
  rfl

/-- What a path yields to a reader: what the file holds, or nothing where there is no file. -/
inductive Tree.Yields (tree : Tree) (path : Path) : Option Text.Bytes → Prop where
  | file {content : Text.Bytes} (read : tree.read path = .ok content) : Yields tree path (some content)
  | nothing {text : String} (missing : tree.read path = .error (.refused .noEntry text)) :
      Yields tree path none

/-- What a path yields is what can be read there. -/
theorem Tree.Yields.eq {tree : Tree} {path : Path} {content : Option Text.Bytes}
    (yields : tree.Yields path content) : content = (tree.read path).toOption := by
  cases yields with
  | file read => rw [read]; rfl
  | nothing missing => rw [missing]; rfl

/-- What the descriptor of a project is read as is settled by what its path yields. -/
theorem Descriptor.read_tells {before : Session → Prop} (layout : Layout) :
    Ends before (Descriptor.read layout)
      (fun value session => (∃ content, session.tree.Yields layout.descriptor content ∧
        Descriptor.valueIn? content = some value) ∧ before session) before := by
  unfold Descriptor.read
  refine (Ends.attempt_readText _).bind fun result => Ends.of_forall fun state ⟨told, start⟩ => ?_
  have yielded {content : Option Text.Bytes} {value : Json} (yields : state.tree.Yields layout.descriptor content)
      (same : Descriptor.valueIn? content = some value) :
      Ends (· = state) (pure value : Action Json)
        (fun value session => (∃ content, session.tree.Yields layout.descriptor content ∧
          Descriptor.valueIn? content = some value) ∧ before session) before := by
    refine .pure fun session here => ?_
    subst here
    exact ⟨⟨content, yields, same⟩, start⟩
  have refused (fault : Fault) : Ends (· = state) (throw fault : Action Json)
      (fun value session => (∃ content, session.tree.Yields layout.descriptor content ∧
        Descriptor.valueIn? content = some value) ∧ before session) before :=
    .throw fun session here => here ▸ start
  unfold Session.textAt at told
  split at told
  · rename_i fault missing
    subst told
    split
    · rename_i text same
      cases same
      exact yielded (.nothing missing) rfl
    · exact refused _
    · rename_i impossible
      cases impossible
  · rename_i bytes held
    split at told
    · rename_i text decoded
      subst told
      split
      · rename_i impossible
        cases impossible
      · rename_i impossible
        cases impossible
      · rename_i read same
        cases same
        split
        · rename_i value parsed
          exact yielded (.file held) (by simp only [valueIn?, decoded, parsed])
        · rename_i malformed
          exact yielded (.file held) (by simp only [valueIn?, decoded, malformed])
        · exact refused _
    · subst told
      split
      · rename_i impossible
        cases impossible
      · exact refused _
      · rename_i impossible
        cases impossible

/-- The options of the compiler are settled by the request and by what the path of the descriptor yields. -/
theorem CompilerOptions.ofRequest_tells {before : Session → Prop} (request : Request) (layout : Layout)
    (tsconfig : Option Path) :
    Ends before (CompilerOptions.ofRequest request layout tsconfig)
      (fun options session => (∃ content, session.tree.Yields layout.descriptor content ∧
        Chosen request content tsconfig options) ∧ before session) before := by
  unfold CompilerOptions.ofRequest
  refine (Descriptor.read_tells layout).bind fun value => (Ends.ask _).mono (fun _ told => told)
    (fun options session chosen => ?_) fun _ told => told.2.2
  obtain ⟨same, ⟨content, yields, value⟩, holds⟩ := chosen
  exact ⟨⟨content, yields, _, value, same⟩, holds⟩

section

variable {contents : Contents} {temporary : Path} {clock : Nat} {layout : Layout}
  {good : Tree → Prop}

/-- The descriptor of a project has the value of what the project holds there. -/
theorem Descriptor.read_ends (plain : layout.descriptor.IsPlain)
    (holds : ∀ tree, good tree → tree.IsRegular ∧
      tree.contentAt? layout.descriptor.parts = contents layout.descriptor.parts) :
    Ends (Session.Shows good temporary clock) (Descriptor.read layout)
      (fun value session => Descriptor.valueIn? (contents layout.descriptor.parts) = some value ∧
        Session.Shows good temporary clock session)
      (fun _ => True) := by
  refine (Descriptor.read_tells layout).mono (fun _ shown => shown) (fun value session told => ?_)
    fun _ _ => trivial
  obtain ⟨⟨content, yields, same⟩, shown⟩ := told
  obtain ⟨regular, held⟩ := holds _ shown.tree
  refine ⟨?_, shown⟩
  rw [← held]
  cases yields with
  | file read => rwa [((regular.read_iff plain).mp read).2]
  | nothing missing => rwa [regular.contentAt?_of_read_error plain missing]

/-- The options of the compiler follow from the request and from the descriptor of the project. -/
theorem CompilerOptions.ofRequest_ends (plain : layout.descriptor.IsPlain)
    (holds : ∀ tree, good tree → tree.IsRegular ∧
      tree.contentAt? layout.descriptor.parts = contents layout.descriptor.parts)
    (request : Request) (tsconfig : Option Path) :
    Ends (Session.Shows good temporary clock) (CompilerOptions.ofRequest request layout tsconfig)
      (fun options session => Chosen request (contents layout.descriptor.parts) tsconfig options ∧
        Session.Shows good temporary clock session)
      (fun _ => True) := by
  unfold CompilerOptions.ofRequest
  refine (Descriptor.read_ends plain holds).bind fun value => Ends.of_and fun told => ?_
  exact (Ends.ask _).mono (fun _ shown => shown)
    (fun options _ chosen => ⟨⟨value, told, chosen.1⟩, chosen.2⟩) fun _ _ => trivial

end

end TreeBuild
