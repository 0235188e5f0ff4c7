import TreeBuild.Proofs.Json.Legible
import TreeBuild.Proofs.Session.Reading

/-!
# The linkage that the output declares

The descriptor of the output tree is read and written again at most once by a build: if it does not
declare the linkage of the format yet, the declaration is added, and all other fields stay. What it holds
afterwards depends on what it held before and on nothing else.
-/
namespace TreeBuild.Output

open TreeBuild.Tree

/-- The value that a descriptor holds, where there may be none. A descriptor that cannot be read has no
answer. -/
def valueIn? : Option Text.Bytes → Option (Option Json)
  | none => some none
  | some bytes =>
    match Text.Utf8.decode bytes with
    | .error _ => none
    | .ok text =>
      match Json.read (String.ofList (Text.unifyLineEnds text.toList)) with
      | .ok value => some (some value)
      | .error _ => none

/-- What a descriptor with this content and this value holds once it declares the linkage of a format. -/
def declared (format : OutputFormat) (content : Option Text.Bytes) (value : Option Json) :
    Option Text.Bytes :=
  if declares (descriptorFields value) format.packageType then content
  else some (Text.Utf8.encode ((Json.obj ((descriptorFields value).set "type"
    (.ofString format.packageType))).pretty ++ "\n"))

/-- The content of a descriptor before and after it has been made to declare the linkage of a format. -/
def Patches (format : OutputFormat) (before after : Option Text.Bytes) : Prop :=
  ∃ value, valueIn? before = some value ∧ after = declared format before value

/-- A descriptor that declares its linkage is there. -/
theorem Patches.isSome {format : OutputFormat} {before after : Option Text.Bytes}
    (patches : Patches format before after) : after.isSome := by
  obtain ⟨value, told, rfl⟩ := patches
  unfold declared
  split
  · rename_i known
    cases before with
    | none =>
      cases told
      cases known
    | some content => rfl
  · rfl

/-- A descriptor is made to declare its linkage in one way only. -/
theorem Patches.unique {format : OutputFormat} {before after other : Option Text.Bytes}
    (patches : Patches format before after) (patched : Patches format before other) : after = other := by
  obtain ⟨value, told, rfl⟩ := patches
  obtain ⟨again, toldAgain, rfl⟩ := patched
  rw [told] at toldAgain
  rw [Option.some.inj toldAgain]

/-- A descriptor in which the linkage has been stored is read again as it has been printed. -/
theorem read_declared {value : Option Json}
    (read : ∀ found, value = some found → ∃ text, Json.read text = .ok found) (format : OutputFormat) :
    Json.read ((Json.obj ((descriptorFields value).set "type" (.ofString format.packageType))).pretty ++ "\n") =
      .ok (.obj ((descriptorFields value).set "type" (.ofString format.packageType))) := by
  have sound : Json.IsLegible Json.maxDepth (.obj (descriptorFields value)) ∧
      Json.IsCanonical (.obj (descriptorFields value)) := by
    unfold descriptorFields
    split
    · obtain ⟨text, told⟩ := read _ rfl
      exact ⟨Json.isLegible_of_read told, Json.isCanonical_of_read told⟩
    · exact ⟨.obj nofun, .obj List.nodup_nil nofun⟩
  exact (sound.1.put _ (.str _ _)).read_pretty (sound.2.put _ (.str _))

/-- Fields declare a linkage if it is stored in them. -/
theorem declares_iff {fields : Json.Fields} {packageType : String} :
    declares fields packageType ↔ fields.find? "type" = some (.ofString packageType) := by
  unfold declares
  split
  · rename_i units found
    rw [found, decide_eq_true_eq, Json.ofString, Option.some.injEq, Json.str.injEq]
  · rename_i other
    exact ⟨nofun, fun found => absurd found (other _)⟩

/-- What is stored is declared. -/
theorem declares_set (fields : Json.Fields) (packageType : String) :
    declares (fields.set "type" (.ofString packageType)) packageType :=
  declares_iff.mpr (Json.Fields.get?_put_self _ _ _)

/-- Line ends in a printed value are read as they have been written. -/
theorem unifyLineEnds_pretty (value : Json) :
    String.ofList (Text.unifyLineEnds (value.pretty ++ "\n").toList) = value.pretty ++ "\n" := by
  have basic : ∀ c ∈ (value.pretty ++ "\n").toList, Text.IsBasic c := by
    rw [String.toList_append, Json.pretty, String.toList_ofList]
    exact List.forall_mem_append.mpr ⟨Json.isBasic_writeIndented 0 _ (by simp), by decide⟩
  rw [Text.unifyLineEnds_of_isBasic basic, String.ofList_toList]

/-- The value of a descriptor has been read from its text. -/
theorem exists_text_of_valueIn? {content : Option Text.Bytes} {value : Option Json}
    (told : valueIn? content = some value) (found : Json) (same : value = some found) :
    ∃ text, Json.read text = .ok found := by
  subst same
  unfold valueIn? at told
  split at told
  · cases told
  · split at told
    · cases told
    · split at told <;> cases told
      exact ⟨_, ‹_›⟩

/-- A descriptor that has been made to declare its linkage is left as it is from then on. -/
theorem Patches.again {format : OutputFormat} {before middle after : Option Text.Bytes}
    (first : Patches format before middle) (second : Patches format middle after) : after = middle := by
  obtain ⟨value, told, rfl⟩ := first
  by_cases known : declares (descriptorFields value) format.packageType
  · rw [declared, if_pos known] at second ⊢
    refine second.unique ⟨value, told, ?_⟩
    rw [declared, if_pos known]
  · rw [declared, if_neg known] at second ⊢
    obtain ⟨again, toldAgain, rfl⟩ := second
    rw [valueIn?, Text.Utf8.decode_encode] at toldAgain
    dsimp only at toldAgain
    rw [unifyLineEnds_pretty, read_declared (exists_text_of_valueIn? told)] at toldAgain
    cases toldAgain
    exact if_pos (declares_set _ _)

/-! ### Reading and writing the descriptor -/

/-- What reading a descriptor leads to. One that is missing has no value. -/
def descriptorAt (tree : Tree) (path : Path) : Except Fault (Option Json) :=
  match Session.textAt tree path with
  | .error (.file (.refused .noEntry _)) => .ok none
  | .error fault => .error fault
  | .ok text =>
    match Json.read text with
    | .ok value => .ok (some value)
    | .error error => .error (.json error)

/-- Reading a descriptor changes nothing. -/
theorem readDescriptor_apply (path : Path) (session : Session) :
    readDescriptor path session = (descriptorAt session.tree path, session) := by
  have tried : Action.attempt (Action.readText path) session = (.ok (Session.textAt session.tree path), session) := by
    rw [Action.attempt, Action.readText_apply]
  unfold readDescriptor descriptorAt
  rw [bind_apply, tried]
  dsimp only
  generalize Session.textAt session.tree path = result
  cases result with
  | error fault =>
    -- Only a file that is not there has a case of its own.
    cases fault with
    | file cause =>
      cases cause with
      | refused refusal place => cases refusal <;> rfl
      | _ => rfl
    | _ => rfl
  | ok text =>
    dsimp only
    cases Json.read text <;> rfl

variable {output : Path} {contents : Contents} {temporary : Path} {clock : Nat}

/-- The descriptor of an output tree. -/
def descriptorOf (output : Path) : Path := output / "package.json"

/-- The descriptor lies directly below the output tree. -/
theorem descriptorOf_eq (output : Path) : descriptorOf output =
    ⟨output.anchor, output.parts ++ ["package.json"]⟩ :=
  Path.div_of_isPart output ⟨by decide, by decide, by decide⟩

/-- Its path has no special parts. -/
theorem descriptorOf_isPlain (plain : output.IsPlain) : (descriptorOf output).IsPlain := by
  rw [descriptorOf_eq]
  intro part member
  rcases List.mem_append.mp member with above | last
  · exact plain part above
  · exact List.mem_singleton.mp last ▸ ⟨⟨by decide, by decide, by decide⟩, by decide⟩

/-- The value that is read from a descriptor is that of its content. -/
theorem valueIn?_of_descriptorAt {tree : Tree} {path : Path} (regular : tree.IsRegular) (plain : path.IsPlain)
    {value : Option Json} (told : descriptorAt tree path = .ok value) :
    valueIn? (tree.contentAt? path.parts) = some value := by
  unfold descriptorAt Session.textAt at told
  cases held : tree.read path with
  | error fault =>
    rw [held] at told
    dsimp only at told
    split at told
    · rename_i place missing
      cases missing
      cases told
      rw [regular.contentAt?_of_read_error plain held]
      rfl
    · cases told
    · rename_i impossible
      cases impossible
  | ok bytes =>
    rw [((regular.read_iff plain).mp held).2, valueIn?]
    rw [held] at told
    dsimp only at told ⊢
    cases decoded : Text.Utf8.decode bytes with
    | error error =>
      rw [decoded] at told
      cases told
    | ok text =>
      rw [decoded] at told
      dsimp only at told ⊢
      cases read : Json.read (String.ofList (Text.unifyLineEnds text.toList)) with
      | error error =>
        rw [read] at told
        cases told
      | ok found =>
        rw [read] at told
        cases told
        rfl

/-- The value of a descriptor is that of its content. -/
theorem readDescriptor_ends {path : Path} (plain : path.IsPlain) :
    Ends (Session.Shows (fun tree => tree.IsRegular ∧ tree.contentAt? = contents) temporary clock)
      (readDescriptor path)
      (fun value session => valueIn? (contents path.parts) = some value ∧
        Session.Shows (fun tree => tree.IsRegular ∧ tree.contentAt? = contents) temporary clock session)
      (fun _ => True) := by
  refine ⟨fun session shown => ?_⟩
  rw [readDescriptor_apply]
  cases told : descriptorAt session.tree path with
  | error fault => trivial
  | ok value => exact ⟨shown.tree.2 ▸ valueIn?_of_descriptorAt shown.tree.1 plain told, shown⟩

/-- The descriptor of an output tree is the only file that changes when it is patched. -/
theorem patchType_patches (plain : output.IsPlain) (format : OutputFormat) :
    Ends (Session.Shows (fun tree => tree.IsRegular ∧ tree.contentAt? = contents) temporary clock)
      (patchType output format)
      (fun _ => Session.Shows (fun tree => tree.IsRegular ∧ ∃ after,
        Patches format (contents (descriptorOf output).parts) after ∧
          tree.contentAt? = Function.update contents (descriptorOf output).parts after) temporary clock)
      (fun _ => True) := by
  unfold patchType
  refine (readDescriptor_ends (descriptorOf_isPlain plain)).bind fun value => Ends.of_and fun told => ?_
  dsimp only
  split
  · rename_i known
    refine .pure fun session shown => ⟨⟨shown.tree.1, _, ⟨value, told, rfl⟩, ?_⟩, shown.temporary,
      shown.clock⟩
    rw [declared, if_pos known, Function.update_eq_self, shown.tree.2]
  · rename_i unknown
    refine Ends.through (fun _ => Session.Shows
      (fun tree => tree.IsRegular ∧ tree.contentAt? = contents) temporary clock) ?_ fun _ => ?_
    · refine .alterFiles (fun session shown _ => ?_) fun _ _ => trivial
      have same := shown.tree.1.makeDirectories plain
      exact ⟨⟨same.regular, same.contents.trans shown.tree.2⟩, shown.temporary, shown.clock⟩
    · refine Ends.bind (.changeFiles (fun session tree shown written => ?_) fun _ _ _ _ => trivial)
        fun _ => .pure fun _ shown => shown
      obtain ⟨-, changes⟩ := shown.tree.1.write (descriptorOf_isPlain plain) written
      refine ⟨⟨changes.regular, _, ⟨value, told, rfl⟩, ?_⟩, shown.temporary, shown.clock⟩
      rw [changes.contents, shown.tree.2, declared, if_neg unknown]

end TreeBuild.Output
